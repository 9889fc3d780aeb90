import Mathlib.Tactic.Tauto

/-!
# Results that may fail

Taking apart a sequence of steps that ended well, and searches that may break off.
-/
namespace Grove

/-- If a sequence of steps ended well, so did its first step, and the rest with what that gave. -/
theorem ok_of_bind {ε α β : Type} {x : Except ε α} {f : α → Except ε β} {b : β}
    (h : (x >>= f) = .ok b) : ∃ a, x = .ok a ∧ f a = .ok b := by
  cases x with
  | error e => cases h
  | ok a => exact ⟨a, rfl, h⟩

theorem toOption_eq_some_iff {ε α : Type} {x : Except ε α} {a : α} :
    x.toOption = some a ↔ x = .ok a := by
  cases x <;> simp [Except.toOption]

/-- Every error that a result may be is of a sort. -/
def FailsOnly {ε α : Type} (P : ε → Prop) (x : Except ε α) : Prop :=
  ∀ e, x = .error e → P e

section FailsOnly

variable {ε α β : Type} {P : ε → Prop}

theorem failsOnly_ok (a : α) : FailsOnly P (.ok a : Except ε α) :=
  nofun

theorem failsOnly_error {e : ε} : FailsOnly P (.error e : Except ε α) ↔ P e := by
  constructor
  · intro h
    exact h e rfl
  · rintro h e' heq
    cases heq
    exact h

theorem FailsOnly.bind {x : Except ε α} {f : α → Except ε β} (hx : FailsOnly P x)
    (hf : ∀ a, x = .ok a → FailsOnly P (f a)) : FailsOnly P (x >>= f) := by
  cases x with
  | error e => exact failsOnly_error.mpr (failsOnly_error.mp hx)
  | ok a => exact hf a rfl

theorem FailsOnly.map {x : Except ε α} (hx : FailsOnly P x) (f : α → β) :
    FailsOnly P (x >>= fun a => .ok (f a)) :=
  hx.bind fun a _ => failsOnly_ok (f a)

theorem FailsOnly.mapM {f : α → Except ε β} {xs : List α} (h : ∀ x ∈ xs, FailsOnly P (f x)) :
    FailsOnly P (xs.mapM f) := by
  induction xs with
  | nil => exact failsOnly_ok _
  | cons x xs ih =>
    rw [List.forall_mem_cons] at h
    rw [List.mapM_cons]
    exact h.1.bind fun _ _ => (ih h.2).bind fun _ _ => failsOnly_ok _

theorem FailsOnly.imp {Q : ε → Prop} {x : Except ε α} (hx : FailsOnly P x) (hPQ : ∀ e, P e → Q e) :
    FailsOnly Q x :=
  fun e h => hPQ e (hx e h)

end FailsOnly

/-- Everything that a result may be, if it is no error, is of a sort. -/
def Yields {ε α : Type} (P : α → Prop) (x : Except ε α) : Prop :=
  ∀ a, x = .ok a → P a

section Yields

variable {ε α β : Type} {P : β → Prop}

theorem yields_ok {b : β} (h : P b) : Yields P (.ok b : Except ε β) := by
  rintro b' ⟨⟩
  exact h

theorem yields_error (e : ε) : Yields P (.error e) :=
  nofun

theorem Yields.bind {x : Except ε α} {f : α → Except ε β} (hf : ∀ a, x = .ok a → Yields P (f a)) :
    Yields P (x >>= f) := by
  intro b h
  obtain ⟨a, hx, hfa⟩ := ok_of_bind h
  exact hf a hx b hfa

end Yields

/-- What a list of steps gave is what each of them gave. -/
theorem mem_of_mapM_eq_ok {ε α β : Type} {f : α → Except ε β} {xs : List α} {ys : List β}
    (h : xs.mapM f = .ok ys) {y : β} : y ∈ ys ↔ ∃ x ∈ xs, f x = .ok y := by
  induction xs generalizing ys with
  | nil =>
    cases h
    simp
  | cons x xs ih =>
    rw [List.mapM_cons] at h
    obtain ⟨first, hfirst, h⟩ := ok_of_bind h
    obtain ⟨rest, hrest, h⟩ := ok_of_bind h
    cases h
    simp [ih hrest, hfirst, eq_comm]

/-- A list of steps ends well exactly if each of them does. -/
theorem exists_mapM_eq_ok_iff {ε α β : Type} {f : α → Except ε β} {xs : List α} :
    (∃ ys, xs.mapM f = .ok ys) ↔ ∀ x ∈ xs, ∃ y, f x = .ok y := by
  induction xs with
  | nil => simp [pure, Except.pure]
  | cons x xs ih =>
    rw [List.forall_mem_cons, ← ih]
    constructor
    · rintro ⟨ys, h⟩
      rw [List.mapM_cons] at h
      obtain ⟨first, hfirst, h⟩ := ok_of_bind h
      obtain ⟨rest, hrest, -⟩ := ok_of_bind h
      exact ⟨⟨first, hfirst⟩, ⟨rest, hrest⟩⟩
    · rintro ⟨⟨first, hfirst⟩, ⟨rest, hrest⟩⟩
      refine ⟨first :: rest, ?_⟩
      simp [List.mapM_cons, hfirst, hrest, bind, Except.bind, pure, Except.pure]

/-! ### Searches -/

/-- A search comes to a member of a list if it passes all members in front of one such. -/
def ComesTo {α : Type} (passes : α → Prop) (xs : List α) (x : α) : Prop :=
  ∃ front back, xs = front ++ x :: back ∧ ∀ y ∈ front, passes y

section Search

variable {ε α β : Type} {passes : α → Prop} {xs : List α} {x : α}

theorem comesTo_cons {y : α} :
    ComesTo passes (y :: xs) x ↔ x = y ∨ passes y ∧ ComesTo passes xs x := by
  constructor
  · rintro ⟨front, back, hxs, hfront⟩
    cases front with
    | nil =>
      cases hxs
      exact Or.inl rfl
    | cons z front =>
      cases hxs
      obtain ⟨hz, hfront⟩ := List.forall_mem_cons.mp hfront
      exact Or.inr ⟨hz, front, back, rfl, hfront⟩
  · rintro (rfl | ⟨hy, front, back, rfl, hfront⟩)
    · exact ⟨[], xs, rfl, nofun⟩
    · exact ⟨y :: front, back, rfl, List.forall_mem_cons.mpr ⟨hy, hfront⟩⟩

theorem not_comesTo_nil : ¬ ComesTo passes [] x := by
  rintro ⟨front, back, h, -⟩
  cases front <;> cases h

theorem comesTo_map {f : β → α} {ys : List β} :
    ComesTo passes (ys.map f) x ↔ ∃ y, ComesTo (passes <| f ·) ys y ∧ f y = x := by
  induction ys with
  | nil => simp [not_comesTo_nil]
  | cons y ys ih => simp [comesTo_cons, ih, or_and_right, exists_or, eq_comm, and_assoc]

/-- A search through one list after the other comes to a member of a list if it passes all lists in
front. -/
theorem comesTo_flatMap {g : β → List α} {ys : List β} : ComesTo passes (ys.flatMap g) x ↔
    ∃ y, ComesTo (∀ z ∈ g ·, passes z) ys y ∧ ComesTo passes (g y) x := by
  induction ys with
  | nil => simp [not_comesTo_nil]
  | cons y ys ih =>
    have happend : ∀ zs : List α, ComesTo passes (zs ++ ys.flatMap g) x ↔
        ComesTo passes zs x ∨ (∀ z ∈ zs, passes z) ∧ ComesTo passes (ys.flatMap g) x := by
      intro zs
      induction zs with
      | nil => simp [not_comesTo_nil]
      | cons z zs ihzs =>
        rw [List.cons_append, comesTo_cons, comesTo_cons, ihzs, List.forall_mem_cons]
        tauto
    rw [List.flatMap_cons, happend, ih]
    constructor
    · rintro (h | ⟨hpasses, y', hy', h⟩)
      · exact ⟨y, comesTo_cons.mpr (Or.inl rfl), h⟩
      · exact ⟨y', comesTo_cons.mpr (Or.inr ⟨hpasses, hy'⟩), h⟩
    · rintro ⟨y', hy', h⟩
      rcases comesTo_cons.mp hy' with rfl | ⟨hpasses, hy'⟩
      · exact Or.inl h
      · exact Or.inr ⟨hpasses, y', hy', h⟩

theorem ComesTo.mem (h : ComesTo passes xs x) : x ∈ xs := by
  obtain ⟨front, back, rfl, -⟩ := h
  exact List.mem_append_right _ List.mem_cons_self

theorem comesTo_congr {passes' : α → Prop} (h : ∀ y ∈ xs, (passes y ↔ passes' y)) :
    ComesTo passes xs x ↔ ComesTo passes' xs x := by
  induction xs with
  | nil => simp [not_comesTo_nil]
  | cons y xs ih =>
    obtain ⟨hy, hxs⟩ := List.forall_mem_cons.mp h
    rw [comesTo_cons, comesTo_cons, hy, ih hxs]

variable {f : α → Except ε (Option β)}

theorem findSomeM?_eq_none_iff : xs.findSomeM? f = .ok none ↔ ∀ x ∈ xs, f x = .ok none := by
  induction xs with
  | nil => simp [pure, Except.pure]
  | cons x xs ih =>
    rw [List.findSomeM?_cons, List.forall_mem_cons]
    rcases hx : f x with e | _ | b
    · simp [bind, Except.bind]
    · simpa [bind, Except.bind] using ih
    · simp [bind, Except.bind, pure, Except.pure]

theorem findSomeM?_eq_some_iff {b : β} : xs.findSomeM? f = .ok (some b) ↔
    ∃ x, ComesTo (f · = .ok none) xs x ∧ f x = .ok (some b) := by
  induction xs with
  | nil => simp [not_comesTo_nil, pure, Except.pure]
  | cons x xs ih =>
    rw [List.findSomeM?_cons]
    rcases hx : f x with e | _ | b'
    · simp [comesTo_cons, hx, bind, Except.bind]
    · simpa [comesTo_cons, hx, bind, Except.bind] using ih
    · simp [comesTo_cons, hx, bind, Except.bind, pure, Except.pure]

theorem findSomeM?_eq_error_iff {e : ε} : xs.findSomeM? f = .error e ↔
    ∃ x, ComesTo (f · = .ok none) xs x ∧ f x = .error e := by
  induction xs with
  | nil => simp [not_comesTo_nil, pure, Except.pure]
  | cons x xs ih =>
    rw [List.findSomeM?_cons]
    rcases hx : f x with e' | _ | b
    · simp [comesTo_cons, hx, bind, Except.bind]
    · simpa [comesTo_cons, hx, bind, Except.bind] using ih
    · simp [comesTo_cons, hx, bind, Except.bind, pure, Except.pure]

/-! A search for a member with a property. -/

variable {p : α → Except ε Bool}

theorem findM?_eq_none_iff : xs.findM? p = .ok none ↔ ∀ x ∈ xs, p x = .ok false := by
  induction xs with
  | nil => simp [List.findM?, pure, Except.pure]
  | cons x xs ih =>
    rw [List.findM?, List.forall_mem_cons]
    rcases hx : p x with e | _ | _
    · simp [bind, Except.bind]
    · simpa [bind, Except.bind] using ih
    · simp [bind, Except.bind, pure, Except.pure]

theorem findM?_eq_some_iff :
    xs.findM? p = .ok (some x) ↔ ComesTo (p · = .ok false) xs x ∧ p x = .ok true := by
  induction xs with
  | nil => simp [List.findM?, not_comesTo_nil, pure, Except.pure]
  | cons y xs ih =>
    rw [List.findM?, comesTo_cons]
    rcases hy : p y with e | _ | _
    · simp [bind, Except.bind]
      rintro rfl
      simp [hy]
    · simp only [bind, Except.bind, ih, true_and]
      constructor
      · exact fun h => ⟨Or.inr h.1, h.2⟩
      · rintro ⟨rfl | h, hx⟩
        · cases hy.symm.trans hx
        · exact ⟨h, hx⟩
    · simp [bind, Except.bind, pure, Except.pure, eq_comm]
      rintro rfl
      exact hy

theorem findM?_eq_error_iff {e : ε} : xs.findM? p = .error e ↔
    ∃ x, ComesTo (p · = .ok false) xs x ∧ p x = .error e := by
  induction xs with
  | nil => simp [List.findM?, not_comesTo_nil, pure, Except.pure]
  | cons y xs ih =>
    rw [List.findM?]
    rcases hy : p y with e' | _ | _
    · simp [comesTo_cons, hy, bind, Except.bind]
    · simpa [comesTo_cons, hy, bind, Except.bind] using ih
    · simp [comesTo_cons, hy, bind, Except.bind, pure, Except.pure]

/-- A search that meets no error comes to a member with the property, if there is one. -/
theorem exists_comesTo (total : ∀ y ∈ xs, ∀ e, p y ≠ .error e) (hx : x ∈ xs) (h : p x = .ok true) :
    ∃ y, ComesTo (p · = .ok false) xs y ∧ p y = .ok true := by
  rcases hsearch : xs.findM? p with e | _ | y
  · obtain ⟨y, hy, herror⟩ := findM?_eq_error_iff.mp hsearch
    exact absurd herror (total y hy.mem e)
  · cases h.symm.trans (findM?_eq_none_iff.mp hsearch x hx)
  · exact ⟨y, findM?_eq_some_iff.mp hsearch⟩

end Search

/-! ### Two results -/

/-- Two results that end alike: with the same error, or with values that stand in a relation. -/
inductive Alike {ε α β : Type} (R : α → β → Prop) : Except ε α → Except ε β → Prop
  | ok {a : α} {b : β} (related : R a b) : Alike R (.ok a) (.ok b)
  | error (e : ε) : Alike R (.error e) (.error e)

namespace Alike

variable {ε α β γ δ : Type} {R : α → β → Prop}

theorem refl (x : Except ε α) : Alike Eq x x := by
  cases x with
  | ok a => exact .ok rfl
  | error e => exact .error e

theorem of_map (f : α → β) (x : Except ε α) : Alike (fun a b => b = f a) x (x.map f) := by
  cases x with
  | ok a => exact .ok rfl
  | error e => exact .error e

/-- Steps that go on alike from related values end alike. -/
theorem bind {S : γ → δ → Prop} {x : Except ε α} {y : Except ε β} {f : α → Except ε γ}
    {g : β → Except ε δ} (h : Alike R x y) (next : ∀ a b, x = .ok a → R a b → Alike S (f a) (g b)) :
    Alike S (x >>= f) (y >>= g) := by
  cases h with
  | ok related => exact next _ _ rfl related
  | error e => exact .error e

/-- So do steps that go on alike from a value and from its image. -/
theorem bind_image {S : γ → δ → Prop} {r : α → β} {x : Except ε α} {y : Except ε β}
    {f : α → Except ε γ} {g : β → Except ε δ} (h : Alike (fun a b => b = r a) x y)
    (next : ∀ a, x = .ok a → Alike S (f a) (g (r a))) :
    Alike S (x >>= f) (y >>= g) := by
  refine h.bind ?_
  rintro a _ ha rfl
  exact next a ha

/-- So do steps that go on alike after the same first one. -/
theorem after {S : γ → δ → Prop} (x : Except ε α) {f : α → Except ε γ} {g : α → Except ε δ}
    (next : ∀ a, x = .ok a → Alike S (f a) (g a)) : Alike S (x >>= f) (x >>= g) := by
  refine (refl x).bind ?_
  rintro a _ ha rfl
  exact next a ha

theorem mapError {ε' : Type} {x : Except ε α} {y : Except ε β} (h : Alike R x y) (f : ε → ε') :
    Alike R (x.mapError f) (y.mapError f) := by
  cases h with
  | ok related => exact .ok related
  | error e => exact .error (f e)

end Alike

end Grove
