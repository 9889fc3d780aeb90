import Grove.Text.Basic

/-!
# Entries by key

Entries are pairs of a key and a value in the order of insertion. Putting a key that is there keeps
its place and changes its value; a new key goes last.
-/
namespace Grove.Entries

variable {α : Type}

def get? (key : Text) : List (Text × α) → Option α
  | [] => none
  | (k, v) :: es => if k = key then some v else get? key es

def put (key : Text) (value : α) : List (Text × α) → List (Text × α)
  | [] => [(key, value)]
  | (k, v) :: es => if k = key then (k, value) :: es else (k, v) :: put key value es

def erase (key : Text) (es : List (Text × α)) : List (Text × α) :=
  es.filter fun (k, _) => k ≠ key

def keys (es : List (Text × α)) : List Text :=
  es.map (·.1)

@[simp] theorem get?_put_self (key : Text) (value : α) (es : List (Text × α)) :
    get? key (put key value es) = some value := by
  induction es with
  | nil => simp [put, get?]
  | cons e es ih => obtain ⟨k, v⟩ := e; by_cases h : k = key <;> simp [put, get?, h, ih]

theorem get?_put_of_ne {key other : Text} (h : other ≠ key) (value : α) (es : List (Text × α)) :
    get? other (put key value es) = get? other es := by
  induction es with
  | nil => simp [put, get?, Ne.symm h]
  | cons e es ih =>
    obtain ⟨k, v⟩ := e
    by_cases hk : k = key
    · simp [put, get?, hk, Ne.symm h]
    · simp [put, get?, hk, ih]

/-- Putting a key adds it at the end unless it is there. -/
theorem keys_put (key : Text) (value : α) (es : List (Text × α)) :
    keys (put key value es) = if key ∈ keys es then keys es else keys es ++ [key] := by
  induction es with
  | nil => simp [put, keys]
  | cons e es ih =>
    obtain ⟨k, v⟩ := e
    simp only [keys] at ih ⊢
    by_cases hk : k = key
    · simp [put, hk]
    · by_cases hm : key ∈ es.map (·.1)
      · simp only [put, hk, if_false, List.map_cons, ih, hm, if_true]
        simp [hm]
      · simp only [put, hk, if_false, List.map_cons, ih, hm]
        simp [hm, Ne.symm hk]

end Grove.Entries
