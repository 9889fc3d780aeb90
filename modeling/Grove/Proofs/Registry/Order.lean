import Mathlib.Data.List.Induction
import Mathlib.Order.Bounds.Basic
import Grove.Proofs.Registry.Directory
import Grove.Proofs.Tree.Merging

/-!
# The order of the backends

What a call does to a registry is told by a relation with one constructor for each outcome. From it
follows what holds after a run of calls: names are told once, and they stand in the order of the
registrations that found them absent, the latest one for each name. A replacement is no such
registration, nor is a call that fails.
-/
namespace Grove

theorem getElem?_concat_eq_some_iff {α : Type} {xs : List α} {x y : α} {i : Nat} :
    (xs ++ [x])[i]? = some y ↔ xs[i]? = some y ∨ i = xs.length ∧ x = y := by
  rcases Nat.lt_trichotomy i xs.length with hlt | rfl | hgt
  · simp [List.getElem?_append_left hlt, Nat.ne_of_lt hlt]
  · simp
  · have hshort : (xs ++ [x]).length ≤ i := by
      rw [List.length_append, List.length_singleton]
      omega
    simp [List.getElem?_eq_none hshort, List.getElem?_eq_none (Nat.le_of_lt hgt), Nat.ne_of_gt hgt]

namespace Entries

variable {α : Type}

theorem exists_eq_append_of_mem_keys {key : Text} {es : List (Text × α)} (h : key ∈ keys es) :
    ∃ front value back, es = front ++ (key, value) :: back := by
  obtain ⟨⟨k, value⟩, hmem, rfl⟩ := List.mem_map.mp h
  obtain ⟨front, back, rfl⟩ := List.append_of_mem hmem
  exact ⟨front, value, back, rfl⟩

/-- Where keys are told once, an entry that is erased leaves the others. -/
theorem erase_append_cons {key : Text} {value : α} {front back : List (Text × α)}
    (h : (keys (front ++ (key, value) :: back)).Nodup) :
    erase key (front ++ (key, value) :: back) = front ++ back := by
  have hkeys : keys (front ++ (key, value) :: back) =
      keys front ++ key :: keys back := by simp [keys]
  rw [hkeys] at h
  have hnotMem : key ∉ keys front ++ keys back := (List.nodup_cons.mp (List.nodup_middle.mp h)).1
  have hothers : ∀ e ∈ front ++ back, e.1 ≠ key := by
    rintro e he rfl
    apply hnotMem
    rw [keys, keys, ← List.map_append]
    exact List.mem_map_of_mem he
  rw [erase, List.filter_append, List.filter_cons_of_neg (by simp), ← List.filter_append,
    List.filter_eq_self]
  simpa using hothers

end Entries

namespace Registry

variable {r : Registry} {step : Registration}

/-! ### One call -/

def call (r : Registry) : Registration → Except Error Registry
  | .register b replace => r.register b replace
  | .unregister name => (r.unregister name).map (·.2)

theorem after_eq (r : Registry) (step : Registration) :
    r.after step = (r.call step).toOption.getD r := by
  cases step with
  | register b replace => rfl
  | unregister name =>
    simp only [after, call]
    cases r.unregister name <;> rfl

inductive Outcome (r : Registry) : Registration → Except Error Registry → Prop
  | unnamed {b : Backend} {replace : Bool} (unnamed : b.name = "") :
      Outcome r (.register b replace) (.error (.unnamedBackend b.label))
  | taken {b : Backend} (named : b.name ≠ "") (present : b.name ∈ r.names) :
      Outcome r (.register b false) (.error (.nameTaken b.name))
  /-- A replacement takes the place of what had the name. -/
  | replaced {b old : Backend} {front back : List (Text × Backend)} (named : b.name ≠ "")
      (held : r.backends = front ++ (b.name, old) :: back) :
      Outcome r (.register b true) (.ok { r with backends := front ++ (b.name, b) :: back })
  /-- A new name goes last. -/
  | added {b : Backend} {replace : Bool} (named : b.name ≠ "") (absent : b.name ∉ r.names) :
      Outcome r (.register b replace) (.ok { r with backends := r.backends ++ [(b.name, b)] })
  | unknown {name : Text} (absent : name ∉ r.names) :
      Outcome r (.unregister name) (.error (.notRegistered name))
  | removed {name : Text} {b : Backend} {front back : List (Text × Backend)}
      (held : r.backends = front ++ (name, b) :: back) :
      Outcome r (.unregister name) (.ok { r with backends := front ++ back })

/-- Names are told once, none is empty, and every backend stands under its own. -/
structure WellNamed (r : Registry) : Prop where
  once : r.names.Nodup
  named : ↑ "" ∉ r.names
  own : ∀ entry ∈ r.backends, entry.2.name = entry.1

theorem outcome_register (r : Registry) (b : Backend) (replace : Bool) :
    r.Outcome (.register b replace) (r.register b replace) := by
  by_cases hname : b.name = ""
  · rw [register, if_pos hname]
    exact .unnamed hname
  by_cases hmem : b.name ∈ r.names
  · have hsome : (Entries.get? b.name r.backends).isSome = true := Entries.isSome_get?_iff.mpr hmem
    cases replace with
    | false =>
      rw [register, if_neg hname, if_pos (by simp [hsome])]
      exact .taken hname hmem
    | true =>
      obtain ⟨front, old, back, hbackends, -, hput⟩ := Entries.put_of_mem hmem b
      rw [register, if_neg hname, if_neg (by simp), hput]
      exact .replaced hname hbackends
  · have hnone : ¬ (Entries.get? b.name r.backends).isSome = true :=
      mt Entries.isSome_get?_iff.mp hmem
    rw [register, if_neg hname, if_neg (by simp [hnone]), Entries.put_of_notMem hmem]
    exact .added hname hmem

theorem outcome_unregister (once : r.names.Nodup) (name : Text) :
    r.Outcome (.unregister name) ((r.unregister name).map (·.2)) := by
  by_cases hmem : name ∈ r.names
  · obtain ⟨front, b, back, hbackends⟩ := Entries.exists_eq_append_of_mem_keys hmem
    have hget : Entries.get? name r.backends = some b :=
      (Entries.get?_eq_some_iff once).mpr (hbackends ▸ List.mem_append_right _ List.mem_cons_self)
    have herase : Entries.erase name r.backends = front ++ back := by
      rw [names, hbackends] at once
      rw [hbackends, Entries.erase_append_cons once]
    simp only [unregister, hget, herase]
    exact .removed hbackends
  · have hnone : Entries.get? name r.backends = none := by
      simpa using mt Entries.isSome_get?_iff.mp hmem
    simp only [unregister, hnone]
    exact .unknown hmem

theorem outcome_call (once : r.names.Nodup) (step : Registration) :
    r.Outcome step (r.call step) := by
  cases step with
  | register b replace => exact outcome_register r b replace
  | unregister name => exact outcome_unregister once name

/-- What calls do to the names. -/
inductive Naming (names : List Text) : Registration → List Text → Prop
  | kept {b : Backend} {replace : Bool} (known : b.name = "" ∨ b.name ∈ names) :
      Naming names (.register b replace) names
  | added {b : Backend} {replace : Bool} (named : b.name ≠ "") (absent : b.name ∉ names) :
      Naming names (.register b replace) (names ++ [b.name])
  | unknown {name : Text} (absent : name ∉ names) : Naming names (.unregister name) names
  | removed {name : Text} {front back : List Text} (held : names = front ++ name :: back) :
      Naming names (.unregister name) (front ++ back)

theorem keys_append_cons (front back : List (Text × Backend)) (name : Text) (b : Backend) :
    Entries.keys (front ++ (name, b) :: back) =
      Entries.keys front ++ name :: Entries.keys back := by
  simp [Entries.keys]

theorem naming_after (once : r.names.Nodup) (step : Registration) :
    Naming r.names step (r.after step).names := by
  rw [after_eq]
  have outcome := outcome_call once step
  generalize r.call step = result at outcome ⊢
  cases outcome with
  | unnamed unnamed => exact .kept (Or.inl unnamed)
  | taken named present => exact .kept (Or.inr present)
  | @replaced b old front back named held =>
    have hnames : r.names = Entries.keys front ++ b.name :: Entries.keys back := by
      rw [names, held, keys_append_cons]
    have hafter : ({ r with backends := front ++ (b.name, b) :: back } : Registry).names =
        r.names := by
      rw [hnames, names, keys_append_cons]
    show Naming r.names (.register b true)
        ({ r with backends := front ++ (b.name, b) :: back } : Registry).names
    rw [hafter]
    exact .kept (Or.inr (by simp [hnames]))
  | @added b replace named absent =>
    have hafter : ({ r with backends := r.backends ++ [(b.name, b)] } : Registry).names =
        r.names ++ [b.name] := by
      simp [names, Entries.keys]
    exact hafter ▸ .added named absent
  | unknown absent => exact .unknown absent
  | @removed name b front back held =>
    have hafter : ({ r with backends := front ++ back } : Registry).names =
        Entries.keys front ++ Entries.keys back := by
      simp [names, Entries.keys]
    exact hafter ▸ .removed (by rw [names, held, keys_append_cons])

theorem WellNamed.empty (own : Option ConfigId) (strict : Bool) : (empty own strict).WellNamed where
  once := List.nodup_nil
  named := List.not_mem_nil
  own := nofun

theorem WellNamed.own_of_split (h : r.WellNamed) {front back : List (Text × Backend)}
    {e : Text × Backend} (held : r.backends = front ++ e :: back) :
    ∀ entry ∈ front ++ back, entry.2.name = entry.1 := by
  intro entry hentry
  have hsub : (front ++ back).Sublist r.backends :=
    held ▸ (List.sublist_cons_self e back).append_left front
  exact h.own entry (hsub.subset hentry)

theorem WellNamed.after (h : r.WellNamed) (step : Registration) : (r.after step).WellNamed := by
  have naming := naming_after h.once step
  constructor
  · generalize (r.after step).names = names' at naming ⊢
    cases naming with
    | kept | unknown => exact h.once
    | added named absent => exact List.concat_eq_append ▸ h.once.concat absent
    | removed held => exact (List.nodup_cons.mp (List.nodup_middle.mp (held ▸ h.once))).2
  · generalize (r.after step).names = names' at naming ⊢
    cases naming with
    | kept | unknown => exact h.named
    | added named absent =>
      rw [List.mem_append, List.mem_singleton, not_or]
      exact ⟨h.named, Ne.symm named⟩
    | @removed name front back held =>
      have hsub : (front ++ back).Sublist r.names :=
        held ▸ (List.sublist_cons_self name back).append_left front
      exact fun hmem => h.named (hsub.subset hmem)
  · intro entry hentry
    rw [after_eq] at hentry
    have outcome := outcome_call h.once step
    generalize r.call step = result at outcome hentry
    cases outcome with
    | unnamed | taken | unknown => exact h.own entry hentry
    | replaced named held =>
      rcases List.mem_cons.mp (List.perm_middle.mem_iff.mp hentry) with rfl | hrest
      · rfl
      · exact h.own_of_split held entry hrest
    | added named absent =>
      rcases List.mem_append.mp hentry with hmem | hnew
      · exact h.own entry hmem
      · rw [List.mem_singleton.mp hnew]
    | removed held => exact h.own_of_split held entry hentry

/-! ### Runs of calls -/

variable {own : Option ConfigId} {strict : Bool} {run : List Registration} {name : Text}

theorem made_concat (own : Option ConfigId) (strict : Bool) (run : List Registration)
    (step : Registration) :
    made own strict (run ++ [step]) = (made own strict run).after step :=
  List.foldl_concat _ _ _ _

theorem wellNamed_made (own : Option ConfigId) (strict : Bool) (run : List Registration) :
    (made own strict run).WellNamed := by
  induction run using List.reverseRecOn with
  | nil => exact .empty own strict
  | append_singleton run step ih =>
    rw [made_concat]
    exact ih.after step

/-- A registry that is built of backends is made by registering them one after the other. -/
theorem ofBackends_eq_made {backends : List Backend} {r : Registry}
    (h : ofBackends backends own strict = .ok r) :
    r = made own strict (backends.map fun b => .register b false) := by
  have foldl : ∀ start : Registry, backends.foldlM (fun r b => r.register b false) start = .ok r →
      r = (backends.map fun b => Registration.register b false).foldl after start := by
    clear h
    induction backends with
    | nil =>
      rintro start ⟨⟩
      rfl
    | cons b backends ih =>
      intro start hbuilt
      rw [List.foldlM_cons] at hbuilt
      obtain ⟨next, hnext, hbuilt⟩ := ok_of_bind hbuilt
      have hafter : start.after (.register b false) = next := by
        rw [after, hnext]
        rfl
      rw [List.map_cons, List.foldl_cons, hafter]
      exact ih next hbuilt
  exact foldl _ h

/-- A step of a run registers a backend under a name that is absent before it. -/
def Enters (own : Option ConfigId) (strict : Bool) (run : List Registration) (name : Text)
    (i : Nat) : Prop :=
  ∃ b replace, run[i]? = some (.register b replace) ∧ b.name = name ∧ name ≠ "" ∧
    name ∉ (made own strict (run.take i)).names

theorem Enters.lt_length {i : Nat} (h : Enters own strict run name i) : i < run.length := by
  obtain ⟨b, replace, hstep, -⟩ := h
  exact (List.getElem?_eq_some_iff.mp hstep).1

/-- The last step enters a name that it registers if the name is absent before; the others do as
they did. -/
theorem enters_concat_iff {step : Registration} {i : Nat} :
    Enters own strict (run ++ [step]) name i ↔
    Enters own strict run name i ∨
      i = run.length ∧ name ≠ "" ∧ name ∉ (made own strict run).names ∧
        ∃ b replace, step = .register b replace ∧ b.name = name := by
  constructor
  · rintro ⟨b, replace, hstep, hname, named, absent⟩
    rcases getElem?_concat_eq_some_iff.mp hstep with hstep | ⟨rfl, rfl⟩
    · have hlt := (List.getElem?_eq_some_iff.mp hstep).1
      rw [List.take_append_of_le_length (Nat.le_of_lt hlt)] at absent
      exact Or.inl ⟨b, replace, hstep, hname, named, absent⟩
    · rw [List.take_left] at absent
      exact Or.inr ⟨rfl, named, absent, b, replace, rfl, hname⟩
  · rintro (enters | ⟨rfl, named, absent, b, replace, rfl, hname⟩)
    · have hlt := enters.lt_length
      obtain ⟨b, replace, hstep, hname, named, absent⟩ := enters
      refine ⟨b, replace, getElem?_concat_eq_some_iff.mpr (Or.inl hstep), hname, named, ?_⟩
      rw [List.take_append_of_le_length (Nat.le_of_lt hlt)]
      exact absent
    · refine ⟨b, replace, getElem?_concat_eq_some_iff.mpr (Or.inr ⟨rfl, rfl⟩), hname, named, ?_⟩
      rw [List.take_left]
      exact absent

/-- A step enters a name that is not unregistered from then on. -/
structure Stays (own : Option ConfigId) (strict : Bool) (run : List Registration)
    (name : Text) (i : Nat) :
    Prop where
  enters : Enters own strict run name i
  kept : ∀ j, i < j → run[j]? ≠ some (.unregister name)

theorem stays_concat_iff {step : Registration} {i : Nat} : Stays own strict (run ++ [step]) name i ↔
    (Stays own strict run name i ∧ step ≠ .unregister name) ∨
      i = run.length ∧ name ≠ "" ∧ name ∉ (made own strict run).names ∧
        ∃ b replace, step = .register b replace ∧ b.name = name := by
  constructor
  · rintro ⟨entry, kept⟩
    rcases enters_concat_iff.mp entry with enters | hnew
    · refine Or.inl ⟨⟨enters, ?_⟩, ?_⟩
      · intro j hj hunregister
        exact kept j hj (getElem?_concat_eq_some_iff.mpr (Or.inl hunregister))
      · rintro rfl
        exact kept run.length enters.lt_length (getElem?_concat_eq_some_iff.mpr (Or.inr ⟨rfl, rfl⟩))
    · exact Or.inr hnew
  · rintro (⟨⟨enters, kept⟩, hstep⟩ | hnew)
    · refine ⟨enters_concat_iff.mpr (Or.inl enters), ?_⟩
      intro j hj hunregister
      rcases getElem?_concat_eq_some_iff.mp hunregister with hunregister | ⟨-, hlast⟩
      · exact kept j hj hunregister
      · exact hstep hlast
    · refine ⟨enters_concat_iff.mpr (Or.inr hnew), ?_⟩
      intro j hj hunregister
      rcases getElem?_concat_eq_some_iff.mp hunregister with hunregister | ⟨rfl, -⟩
      · have hlt := (List.getElem?_eq_some_iff.mp hunregister).1
        omega
      · omega

/-- After a call the names are those before it, less what it unregisters, and what it registers if
that is absent. -/
theorem Naming.mem_iff {names names' : List Text} {step : Registration}
    (h : Naming names step names') (once : names.Nodup) :
    name ∈ names' ↔ (name ∈ names ∧ step ≠ .unregister name) ∨
      name ≠ "" ∧ name ∉ names ∧ ∃ b replace, step = .register b replace ∧ b.name = name := by
  cases h with
  | @kept b replace known =>
    constructor
    · exact fun hmem => Or.inl ⟨hmem, nofun⟩
    · rintro (⟨hmem, -⟩ | ⟨named, absent, b, replace, ⟨⟩, rfl⟩)
      · exact hmem
      · exact absurd known (not_or.mpr ⟨named, absent⟩)
  | @added b replace named absent =>
    rw [List.mem_append, List.mem_singleton]
    constructor
    · rintro (hmem | rfl)
      · exact Or.inl ⟨hmem, nofun⟩
      · exact Or.inr ⟨named, absent, b, replace, rfl, rfl⟩
    · rintro (⟨hmem, -⟩ | ⟨-, -, b, replace, ⟨⟩, rfl⟩)
      · exact Or.inl hmem
      · exact Or.inr rfl
  | @unknown other absent =>
    constructor
    · intro hmem
      refine Or.inl ⟨hmem, ?_⟩
      rintro ⟨⟩
      exact absent hmem
    · rintro (⟨hmem, -⟩ | ⟨-, -, b, replace, ⟨⟩, -⟩)
      exact hmem
  | @removed other front back held =>
    subst held
    have hother : other ∉ front ++ back := (List.nodup_cons.mp (List.nodup_middle.mp once)).1
    constructor
    · intro hmem
      refine Or.inl ⟨?_, ?_⟩
      · exact ((List.sublist_cons_self other back).append_left front).subset hmem
      · rintro ⟨⟩
        exact hother hmem
    · rintro (⟨hmem, hne⟩ | ⟨-, -, b, replace, ⟨⟩, -⟩)
      have hne : name ≠ other := fun heq => hne (heq ▸ rfl)
      simpa [hne] using hmem

/-- The names are those that entered and were not unregistered since. -/
theorem mem_names_made_iff :
    name ∈ (made own strict run).names ↔ ∃ i, Stays own strict run name i := by
  induction run using List.reverseRecOn with
  | nil =>
    constructor
    · exact nofun
    · rintro ⟨i, h⟩
      exact absurd h.enters.lt_length (Nat.not_lt_zero i)
  | append_singleton run step ih =>
    have once := (wellNamed_made own strict run).once
    rw [made_concat, (naming_after once step).mem_iff once, ih]
    simp only [stays_concat_iff, ← ih]
    constructor
    · rintro (⟨hmem, hstep⟩ | hnew)
      · obtain ⟨i, stays⟩ := ih.mp hmem
        exact ⟨i, Or.inl ⟨stays, hstep⟩⟩
      · exact ⟨run.length, Or.inr ⟨rfl, hnew⟩⟩
    · rintro ⟨i, ⟨stays, hstep⟩ | ⟨-, hnew⟩⟩
      · exact Or.inl ⟨ih.mpr ⟨i, stays⟩, hstep⟩
      · exact Or.inr hnew

theorem Stays.take {i k : Nat} (h : Stays own strict run name i) (hk : i < k) :
    Stays own strict (run.take k) name i := by
  obtain ⟨⟨b, replace, hstep, hname, named, absent⟩, kept⟩ := h
  refine ⟨⟨b, replace, ?_, hname, named, ?_⟩, ?_⟩
  · rw [List.getElem?_take_of_lt hk]
    exact hstep
  · rw [List.take_take, Nat.min_eq_left (Nat.le_of_lt hk)]
    exact absent
  · intro j hj hunregister
    rw [List.getElem?_take] at hunregister
    split at hunregister
    · exact kept j hj hunregister
    · cases hunregister

/-- Where a name entered that is there is the latest place where it did. -/
theorem Stays.isGreatest {i : Nat} (h : Stays own strict run name i) :
    IsGreatest {j | Enters own strict run name j} i := by
  refine ⟨h.enters, ?_⟩
  rintro k ⟨-, -, -, -, -, absent⟩
  by_contra hlt
  exact absent (mem_names_made_iff.mpr ⟨i, h.take (Nat.lt_of_not_le hlt)⟩)

/-- The names stand in the order in which they entered. -/
theorem pairwise_stays (own : Option ConfigId) (strict : Bool) (run : List Registration) :
    (made own strict run).names.Pairwise fun m n =>
      ∀ i j, Stays own strict run m i → Stays own strict run n j → i < j := by
  induction run using List.reverseRecOn with
  | nil => exact .nil
  | append_singleton run step ih =>
    have once := (wellNamed_made own strict run).once
    have naming := naming_after once step
    -- A name that was there before entered before.
    have earlier : ∀ name i, name ∈ (made own strict run).names →
        Stays own strict (run ++ [step]) name i →
        Stays own strict run name i := by
      intro name i hmem stays
      rcases stays_concat_iff.mp stays with ⟨stays, -⟩ | ⟨-, -, absent, -⟩
      · exact stays
      · exact absurd hmem absent
    have ih' : (made own strict run).names.Pairwise fun m n =>
        ∀ i j, Stays own strict (run ++ [step]) m i →
            Stays own strict (run ++ [step]) n j → i < j :=
      ih.imp_of_mem fun hm hn order i j staysm staysn =>
        order i j (earlier _ i hm staysm) (earlier _ j hn staysn)
    rw [made_concat]
    generalize (made own strict run).after step = r' at naming ⊢
    generalize hnames' : r'.names = names' at naming ⊢
    cases naming with
    | kept | unknown => exact ih'
    | @added b replace named absent =>
      refine List.pairwise_append.mpr ⟨ih', List.pairwise_singleton _ _, ?_⟩
      intro m hm n hn i j staysm staysn
      rw [List.mem_singleton.mp hn] at staysn
      rcases stays_concat_iff.mp staysn with ⟨staysn, -⟩ | ⟨rfl, -⟩
      · exact absurd (mem_names_made_iff.mpr ⟨j, staysn⟩) absent
      · exact (earlier m i hm staysm).enters.lt_length
    | @removed name front back held =>
      rw [held] at ih'
      exact ih'.sublist ((List.sublist_cons_self name back).append_left front)

/-! ### What the order decides -/

/-- The first backend of a registry that passes a test. -/
def First (r : Registry) (test : Backend → Bool) (b : Backend) : Prop :=
  ∃ front name back, r.backends = front ++ (name, b) :: back ∧ test b = true ∧ ∀ entry ∈ front,
    test entry.2 = false

theorem selectForString_eq_ok_iff {text : Text} {b : Backend} :
    r.selectForString text = .ok b ↔ r.First (·.accepts text) b := by
  have hselect : r.selectForString text = .ok b ↔
      ∃ name, r.backends.find? (fun e => e.2.accepts text) = some (name, b) := by
    unfold selectForString
    cases hfind : r.backends.find? fun e => e.2.accepts text with
    | none => simp
    | some entry =>
      constructor
      · rintro ⟨⟩
        exact ⟨entry.1, rfl⟩
      · rintro ⟨name, ⟨⟩⟩
        rfl
  rw [hselect]
  simp only [List.find?_eq_some_iff_append]
  constructor
  · rintro ⟨name, haccepts, front, back, hbackends, hearlier⟩
    exact ⟨front, name, back, hbackends, haccepts, by simpa using hearlier⟩
  · rintro ⟨front, name, back, hbackends, haccepts, hearlier⟩
    exact ⟨name, haccepts, front, back, hbackends, by simpa using hearlier⟩

theorem selectForString_unavailable_iff {text : Text} :
    (∃ e, r.selectForString text = .error e ∧ IsUnavailable e) ↔
      ∀ entry ∈ r.backends, entry.2.accepts text = false := by
  have hselect : (∃ e, r.selectForString text = .error e ∧ IsUnavailable e) ↔
      r.backends.find? (fun e => e.2.accepts text) = none := by
    unfold selectForString
    cases hfind : r.backends.find? fun e => e.2.accepts text with
    | none => exact ⟨fun _ => rfl, fun _ => ⟨.noneAccepts, rfl, rfl⟩⟩
    | some entry => simp
  rw [hselect, List.find?_eq_none]
  simp

/-- The backend that writes where none is asked for is the first one. -/
theorem serialize_unspecified (r : Registry) (settings : StorageConfig) (t : Tree) :
    r.serialize settings (some t) .unspecified =
      match r.backends with
      | (_, b) :: _ => (b.dump settings t).map some
      | [] => if r.strict then .error .noBackends else .ok none := by
  cases hbackends : r.backends with
  | nil =>
    have hchoose : r.choose .unspecified = .error .noBackends := by simp [choose, hbackends]
    exact serialize_of_choose_error r r.strict hchoose settings (some t)
  | cons entry rest =>
    have hchoose : r.choose .unspecified = .ok entry.2 := by simp [choose, hbackends]
    exact serialize_of_choose r r.strict hchoose settings (some t)

/-- Take a registry that a run of calls leads to; one that is built of backends is such a registry.
Its names are told once, none is empty, and every backend stands under its own name. A further call
has one of the outcomes above, and if it fails then the registry stays as it is. The names are those
that entered and were not unregistered since, and they stand in the order of the latest
registrations that found them absent. In this order the first backend that accepts a text is picked
for it, and there is none exactly if no backend does; the first backend writes if none is asked
for. -/
theorem names_in_order_of_entry (own : Option ConfigId) (strict : Bool) (run : List Registration) :
    let r := made own strict run
    (∀ backends built, ofBackends backends own strict = .ok built →
      built = made own strict (backends.map fun b => .register b false)) ∧
    r.WellNamed ∧
    (∀ step, r.Outcome step (r.call step) ∧
      made own strict (run ++ [step]) = match r.call step with | .ok r' => r' | .error _ => r) ∧
    (∀ name, name ∈ r.names ↔
      ∃ i, Enters own strict run name i ∧ ∀ j, i < j → run[j]? ≠ some (.unregister name)) ∧
    (∀ name ∈ r.names, ∃ i, IsGreatest {j | Enters own strict run name j} i) ∧
    (r.names.Pairwise fun m n => ∀ i j,
      IsGreatest {k | Enters own strict run m k} i →
        IsGreatest {k | Enters own strict run n k} j → i < j) ∧
    (∀ text b, r.selectForString text = .ok b ↔ r.First (·.accepts text) b) ∧
    (∀ text, (∃ e, r.selectForString text = .error e ∧ IsUnavailable e) ↔
      ∀ entry ∈ r.backends, entry.2.accepts text = false) ∧
    ∀ settings t, r.serialize settings (some t) .unspecified =
      match r.backends with
      | (_, b) :: _ => (b.dump settings t).map some
      | [] => if r.strict then .error .noBackends else .ok none := by
  intro r
  have wellNamed : r.WellNamed := wellNamed_made own strict run
  -- A name that is there has one place where it entered for good, and that is the latest.
  have stays_of_isGreatest :
      ∀ name ∈ r.names, ∀ i, IsGreatest {j | Enters own strict run name j} i →
      Stays own strict run name i := by
    intro name hmem i hgreatest
    obtain ⟨k, stays⟩ := mem_names_made_iff.mp hmem
    rw [hgreatest.unique stays.isGreatest]
    exact stays
  refine ⟨fun _ _ => ofBackends_eq_made, wellNamed, ?calls, ?present, ?latest, ?order, ?selected,
    ?unavailable, ?writes⟩
  case calls =>
    intro step
    refine ⟨outcome_call wellNamed.once step, ?_⟩
    rw [made_concat, after_eq]
    cases r.call step <;> rfl
  case present =>
    intro name
    rw [mem_names_made_iff]
    constructor
    · rintro ⟨i, enters, kept⟩
      exact ⟨i, enters, kept⟩
    · rintro ⟨i, enters, kept⟩
      exact ⟨i, enters, kept⟩
  case latest =>
    intro name hmem
    obtain ⟨i, stays⟩ := mem_names_made_iff.mp hmem
    exact ⟨i, stays.isGreatest⟩
  case order =>
    refine (pairwise_stays own strict run).imp_of_mem fun hm hn order i j greatestm greatestn => ?_
    exact order i j (stays_of_isGreatest _ hm i greatestm) (stays_of_isGreatest _ hn j greatestn)
  case selected => exact fun _ _ => selectForString_eq_ok_iff
  case unavailable => exact fun _ => selectForString_unavailable_iff
  case writes => exact r.serialize_unspecified

/-- JSON is replaced where it stands, so it still comes first; once it was unregistered it comes
back last. The two calls that fail change nothing: YAML is there already, and TOML is not known. -/
theorem names_in_order_of_entry_again :
    let run : List Registration :=
      [.register .json false, .register .yaml false, .register .json true,
      .register .yaml false, .unregister "toml"]
    (made none true run).names = [Text.lit "json", "yaml"] ∧
      (made none true (run ++ [.unregister "json", .register .json false])).names =
        [Text.lit "yaml", "json"] ∧
      (made none true run).selectForString "[1]" = .ok .json ∧
      (made none true run).First (·.accepts "[1]") .json := by
  intro run
  have hselect : (made none true run).selectForString "[1]" = .ok .json := by rfl
  have selected := (names_in_order_of_entry none true run).2.2.2.2.2.2.1
  refine ⟨by decide, by decide, hselect, ?_⟩
  exact (selected "[1]" .json).mp hselect

end Registry

end Grove
