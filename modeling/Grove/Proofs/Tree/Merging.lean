import Mathlib.Data.List.Induction
import Grove.Proofs.Tree.Entries

/-!
# Merging entries

Entries in which keys may be told more than once are merged by putting them one after the other.
Each key then stands where it was first, with the value that it had last.
-/
namespace Grove

namespace Entries

variable {α β : Type}

/-- The entries with each key at the place where it is first and with the value that it has last. -/
def merged (es : List (Text × α)) : List (Text × α) :=
  (keys es).eraseDups.filterMap fun key => (get? key es.reverse).map fun value => (key, value)

theorem get?_filterMap (value? : Text → Option α) (ks : List Text) (key : Text) :
    get? key (ks.filterMap fun k => (value? k).map fun value => (k, value)) =
      if key ∈ ks then value? key else none := by
  induction ks with
  | nil => rfl
  | cons k ks ih =>
    cases hk : value? k with
    | none =>
      rw [List.filterMap_cons_none (by rw [hk]; rfl), ih]
      by_cases heq : key = k
      · simp [heq, hk]
      · simp [heq]
    | some value =>
      rw [List.filterMap_cons_some (by rw [hk]; rfl), get?, ih]
      by_cases heq : key = k
      · simp [heq, hk]
      · simp [heq, Ne.symm heq]

theorem keys_filterMap {value? : Text → Option α} {ks : List Text}
    (h : ∀ k ∈ ks, (value? k).isSome) :
    keys (ks.filterMap fun k => (value? k).map fun value => (k, value)) = ks := by
  induction ks with
  | nil => rfl
  | cons k ks ih =>
    obtain ⟨hk, hks⟩ := List.forall_mem_cons.mp h
    obtain ⟨value, hvalue⟩ := Option.isSome_iff_exists.mp hk
    rw [List.filterMap_cons_some (by rw [hvalue]; rfl)]
    exact congrArg (k :: ·) (ih hks)

theorem isSome_get?_iff {key : Text} {es : List (Text × α)} :
    (get? key es).isSome ↔ key ∈ keys es := by
  induction es with
  | nil => simp [get?, keys]
  | cons e es ih =>
    obtain ⟨k, v⟩ := e
    by_cases hk : k = key
    · simp [get?, keys, hk]
    · simp only [keys] at ih
      simp [get?, keys, hk, Ne.symm hk, ih]

theorem keys_reverse (es : List (Text × α)) : keys es.reverse = (keys es).reverse :=
  List.map_reverse

theorem keys_merged (es : List (Text × α)) : keys (merged es) = (keys es).eraseDups := by
  apply keys_filterMap
  intro k hk
  rw [isSome_get?_iff, keys_reverse, List.mem_reverse]
  exact List.mem_eraseDups.mp hk

theorem get?_merged (es : List (Text × α)) (key : Text) :
    get? key (merged es) = get? key es.reverse := by
  rw [merged, get?_filterMap]
  split
  · rfl
  · next hkey =>
    rw [List.mem_eraseDups, ← List.mem_reverse, ← keys_reverse, ← isSome_get?_iff, Bool.not_eq_true,
      Option.isSome_eq_false_iff, Option.isNone_iff_eq_none] at hkey
    exact hkey.symm

/-- Entries whose keys are told once are what they have at their keys. -/
theorem eq_of_get? {es es' : List (Text × α)} (hkeys : keys es = keys es') (once : (keys es).Nodup)
    (same : ∀ key, get? key es = get? key es') : es = es' := by
  induction es generalizing es' with
  | nil => exact (List.map_eq_nil_iff.mp hkeys.symm).symm
  | cons e es ih =>
    obtain ⟨k, v⟩ := e
    cases es' with
    | nil => cases hkeys
    | cons e' es' =>
      obtain ⟨k', v'⟩ := e'
      obtain ⟨rfl, hrest⟩ : k = k' ∧ keys es = keys es' := List.cons.inj hkeys
      obtain ⟨hnew, once⟩ := List.nodup_cons.mp once
      have hv : v = v' := by simpa [get?] using same k
      rw [hv, ih hrest once]
      intro key
      by_cases hk : k = key
      · subst hk
        have hnone : ∀ {es : List (Text × α)}, k ∉ keys es → get? k es = none := by
          intro es hmem
          rw [← isSome_get?_iff, Bool.not_eq_true, Option.isSome_eq_false_iff,
            Option.isNone_iff_eq_none] at hmem
          exact hmem
        rw [hnone hnew, hnone (hrest ▸ hnew)]
      · simpa [get?, hk] using same key

def putAll (level es : List (Text × α)) : List (Text × α) :=
  es.foldl (fun level (key, value) => put key value level) level

theorem putAll_concat (es : List (Text × α)) (e : Text × α) :
    putAll [] (es ++ [e]) = put e.1 e.2 (putAll [] es) := by
  rw [putAll, List.foldl_append]
  rfl

theorem keys_putAll (es : List (Text × α)) : keys (putAll [] es) = (keys es).eraseDups := by
  induction es using List.reverseRecOn with
  | nil => rfl
  | append_singleton es e ih =>
    have happend : keys (es ++ [e]) = keys es ++ [e.1] := List.map_append
    rw [putAll_concat, keys_put, ih, happend, List.eraseDups_append]
    by_cases hmem : e.1 ∈ keys es
    · simp [hmem, List.removeAll]
    · simp [hmem, List.removeAll, List.eraseDups_cons]

theorem nodup_keys_putAll (es : List (Text × α)) : (keys (putAll [] es)).Nodup := by
  induction es using List.reverseRecOn with
  | nil => exact List.nodup_nil
  | append_singleton es e ih =>
    rw [putAll_concat]
    exact nodup_keys_put ih _

theorem get?_putAll (es : List (Text × α)) (key : Text) :
    get? key (putAll [] es) = get? key es.reverse := by
  induction es using List.reverseRecOn with
  | nil => rfl
  | append_singleton es e ih =>
    rw [putAll_concat, List.reverse_append, List.reverse_singleton, List.singleton_append, get?]
    by_cases hk : e.1 = key
    · rw [if_pos hk, ← hk, get?_put_self]
    · rw [if_neg hk, get?_put_of_ne (Ne.symm hk), ih]

/-- Putting entries one after the other keeps the first place of each key and its last value. -/
theorem putAll_eq_merged (es : List (Text × α)) : putAll [] es = merged es := by
  refine eq_of_get? ?_ (nodup_keys_putAll es) fun key => ?_
  · rw [keys_putAll, keys_merged]
  · rw [get?_putAll, get?_merged]

end Entries

end Grove
