import Mathlib.Data.List.Nodup
import Grove.Tree.Entries

/-!
# Laws of entries by key

Putting a key either changes the value of the first entry of that key or adds an entry at the end.
Keys that are told once stay told once, and a map over the values goes along with putting.
-/
namespace Grove.Entries

variable {α β : Type}

theorem put_of_mem {key : Text} {es : List (Text × α)} (h : key ∈ keys es) (value : α) :
    ∃ front old back, es = front ++ (key, old) :: back ∧ key ∉ keys front ∧
      put key value es = front ++ (key, value) :: back := by
  induction es with
  | nil => cases h
  | cons e es ih =>
    obtain ⟨k, v⟩ := e
    by_cases hk : k = key
    · subst hk
      exact ⟨[], v, es, rfl, List.not_mem_nil, by simp [put]⟩
    · have hmem : key ∈ keys es := by
        rcases List.mem_cons.mp h with heq | hmem
        · exact absurd heq.symm hk
        · exact hmem
      obtain ⟨front, old, back, hes, hfront, hput⟩ := ih hmem
      refine ⟨(k, v) :: front, old, back, by rw [hes]; rfl, ?_, by simp [put, hk, hput]⟩
      intro hin
      rcases List.mem_cons.mp hin with heq | hin
      · exact hk heq.symm
      · exact hfront hin

theorem put_of_notMem {key : Text} {es : List (Text × α)} (h : key ∉ keys es) (value : α) :
    put key value es = es ++ [(key, value)] := by
  induction es with
  | nil => rfl
  | cons e es ih =>
    obtain ⟨k, v⟩ := e
    simp only [keys, List.map_cons, List.mem_cons, not_or] at h
    rw [put, if_neg (Ne.symm h.1), ih h.2]
    rfl

theorem put_cases (key : Text) (value : α) (es : List (Text × α)) :
    put key value es = es ++ [(key, value)] ∨ (put key value es).length = es.length := by
  by_cases h : key ∈ keys es
  · obtain ⟨front, old, back, rfl, -, hput⟩ := put_of_mem h value
    right
    rw [hput, List.length_append, List.length_append, List.length_cons, List.length_cons]
  · exact Or.inl (put_of_notMem h value)

theorem nodup_keys_put {key : Text} {es : List (Text × α)} (h : (keys es).Nodup) (value : α) :
    (keys (put key value es)).Nodup := by
  rw [keys_put]
  split
  · exact h
  · next hk => exact List.nodup_append.mpr ⟨h, List.nodup_singleton key, by
      intro a ha b hb heq
      rw [List.mem_singleton.mp hb] at heq
      exact hk (heq ▸ ha)⟩

theorem mem_of_mem_put {key : Text} {value : α} {es : List (Text × α)} {e : Text × α}
    (h : e ∈ put key value es) : e = (key, value) ∨ e ∈ es := by
  by_cases hk : key ∈ keys es
  · obtain ⟨front, old, back, hes, -, hput⟩ := put_of_mem hk value
    rw [hput] at h
    rcases List.mem_append.mp h with h | h
    · exact Or.inr (hes ▸ List.mem_append_left _ h)
    · rcases List.mem_cons.mp h with h | h
      · exact Or.inl h
      · exact Or.inr (hes ▸ List.mem_append_right _ (List.mem_cons_of_mem _ h))
  · rw [put_of_notMem hk] at h
    rcases List.mem_append.mp h with h | h
    · exact Or.inr h
    · exact Or.inl (List.mem_singleton.mp h)

/-- The values stay told once when a new value is put. -/
theorem nodup_values_put {key : Text} {value : α} {es : List (Text × α)}
    (h : (es.map (·.2)).Nodup) (fresh : value ∉ es.map (·.2)) :
    ((put key value es).map (·.2)).Nodup := by
  by_cases hk : key ∈ keys es
  · obtain ⟨front, old, back, rfl, -, hput⟩ := put_of_mem hk value
    rw [hput]
    simp only [List.map_append, List.map_cons, List.mem_append, List.mem_cons, not_or] at h fresh ⊢
    have hmid := List.nodup_middle.mp h
    refine List.nodup_middle.mpr (List.nodup_cons.mpr ⟨?_, (List.nodup_cons.mp hmid).2⟩)
    intro hin
    rcases List.mem_append.mp hin with hin | hin
    · exact fresh.1 hin
    · exact fresh.2.2 hin
  · rw [put_of_notMem hk, List.map_append]
    refine List.nodup_append.mpr ⟨h, List.nodup_singleton _, ?_⟩
    intro a ha b hb heq
    have heq : a = value := heq.trans (List.mem_singleton.mp hb)
    exact fresh (heq ▸ ha)

theorem mem_of_get? {key : Text} {value : α} {es : List (Text × α)} (h : get? key es = some value) :
    (key, value) ∈ es := by
  induction es with
  | nil => cases h
  | cons e es ih =>
    obtain ⟨k, v⟩ := e
    rw [get?] at h
    split at h
    · next hk =>
      cases h
      subst hk
      exact List.mem_cons_self
    · exact List.mem_cons_of_mem _ (ih h)

theorem get?_eq_some_iff {key : Text} {value : α} {es : List (Text × α)} (h : (keys es).Nodup) :
    get? key es = some value ↔ (key, value) ∈ es := by
  induction es with
  | nil => simp [get?]
  | cons e es ih =>
    obtain ⟨k, v⟩ := e
    simp only [keys, List.map_cons, List.nodup_cons] at h
    by_cases hk : k = key
    · subst hk
      have hnot : ∀ w, (k, w) ∉ es := fun w hw => h.1 (List.mem_map_of_mem hw)
      simp [get?, hnot, eq_comm]
    · simp [get?, hk, ih h.2, Ne.symm hk]

theorem put_map (f : α → β) (key : Text) (value : α) (es : List (Text × α)) :
    put key (f value) (es.map fun (k, v) => (k, f v)) =
      (put key value es).map fun (k, v) => (k, f v) := by
  induction es with
  | nil => rfl
  | cons e es ih =>
    obtain ⟨k, v⟩ := e
    by_cases hk : k = key
    · simp [put, hk]
    · simp [put, hk, ih]

theorem mem_keys_map (f : α → β) {key : Text} {value : α} {es : List (Text × α)}
    (h : (key, value) ∈ es) :
    key ∈ keys (es.map fun (k, v) => (k, f v)) := by
  rw [keys, List.map_map]
  exact List.mem_map_of_mem h

theorem put_put (key : Text) (value value' : α) (es : List (Text × α)) :
    put key value' (put key value es) = put key value' es := by
  induction es with
  | nil => simp [put]
  | cons e es ih =>
    obtain ⟨k, v⟩ := e
    by_cases hk : k = key
    · simp [put, hk]
    · simp [put, hk, ih]

/-- Values of two keys can be put in either order if one of the keys is there; else the order of the
two keys tells which one was put first. -/
theorem put_comm {key key' : Text} (hne : key ≠ key') {es : List (Text × α)} (h : key ∈ keys es)
    (value value' : α) :
    put key' value' (put key value es) = put key value (put key' value' es) := by
  induction es with
  | nil => cases h
  | cons e es ih =>
    obtain ⟨k, v⟩ := e
    by_cases hk : k = key
    · subst hk
      simp [put, hne]
    · have hmem : key ∈ keys es := (List.mem_cons.mp h).resolve_left (Ne.symm hk)
      by_cases hk' : k = key'
      · subst hk'
        simp [put, hk]
      · simp [put, hk, hk', ih hmem]

end Grove.Entries
