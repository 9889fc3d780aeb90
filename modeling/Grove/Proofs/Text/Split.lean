import Mathlib.Data.List.Basic
import Grove.Text.Blank

/-!
# Cutting a text at a character

The parts of a text are free of the separator, no part is longer than the text, and texts that are
joined by the separator have the parts of both. Parts that are free of the separator are what their
joined text is cut into.
-/
namespace Grove.Text

variable {sep : CodePoint}

theorem splitOn_append {α : Type} [DecidableEq α] (sep : α) (a b : List α) :
    splitOn sep (a ++ sep :: b) = splitOn sep a ++ splitOn sep b := by
  induction a with
  | nil => simp [splitOn]
  | cons c cs ih =>
    by_cases h : c = sep
    · simp [splitOn, h, ih]
    · cases hs : splitOn sep cs with
      | nil => exact absurd hs (splitOn_ne_nil sep cs)
      | cons part parts => simp [splitOn, h, ih, hs]

theorem length_le_of_mem_splitOn {cs part : List CodePoint} (h : part ∈ splitOn sep cs) :
    part.length ≤ cs.length := by
  induction cs generalizing part with
  | nil => exact Nat.le_of_eq (congrArg List.length (List.mem_singleton.mp h))
  | cons c cs ih =>
    rw [splitOn] at h
    split at h
    · rcases List.mem_cons.mp h with rfl | h
      · exact Nat.zero_le _
      · exact Nat.le_succ_of_le (ih h)
    · split at h
      · rw [List.mem_singleton.mp h]
        exact Nat.succ_le_succ (Nat.zero_le _)
      · next first rest hsplit =>
        rcases List.mem_cons.mp h with rfl | h
        · exact Nat.succ_le_succ (ih (hsplit ▸ List.mem_cons_self))
        · exact Nat.le_succ_of_le (ih (hsplit ▸ List.mem_cons_of_mem _ h))

theorem notMem_of_mem_splitOn {cs part : List CodePoint}
    (h : part ∈ splitOn sep cs) : sep ∉ part := by
  induction cs generalizing part with
  | nil =>
    rw [List.mem_singleton.mp h]
    exact List.not_mem_nil
  | cons c cs ih =>
    rw [splitOn] at h
    split at h
    · rcases List.mem_cons.mp h with rfl | h
      · exact List.not_mem_nil
      · exact ih h
    · next hc =>
      split at h
      · rw [List.mem_singleton.mp h, List.mem_singleton]
        exact Ne.symm hc
      · next first rest hsplit =>
        rcases List.mem_cons.mp h with rfl | h
        · rw [List.mem_cons, not_or]
          exact ⟨Ne.symm hc, ih (hsplit ▸ List.mem_cons_self)⟩
        · exact ih (hsplit ▸ List.mem_cons_of_mem _ h)

theorem splitOn_joinWith {parts : List (List CodePoint)} (h : parts ≠ [])
    (free : ∀ part ∈ parts, sep ∉ part) :
    splitOn sep (joinWith sep parts) = parts := by
  induction parts with
  | nil => exact absurd rfl h
  | cons part rest ih =>
    obtain ⟨hpart, hrest⟩ := List.forall_mem_cons.mp free
    cases rest with
    | nil => exact splitOn_of_notMem hpart
    | cons next rest =>
      rw [joinWith, splitOn_append, splitOn_of_notMem hpart, ih (List.cons_ne_nil _ _) hrest]
      · rfl
      · exact List.cons_ne_nil _ _

/-- Shorter parts make a shorter text. -/
theorem length_joinWith_map_le {f : List CodePoint → List CodePoint}
    (shorter : ∀ part, (f part).length ≤ part.length) (parts : List (List CodePoint)) :
    (joinWith sep (parts.map f)).length ≤ (joinWith sep parts).length := by
  induction parts with
  | nil => exact Nat.le_refl _
  | cons part rest ih =>
    have hpart := shorter part
    cases rest with
    | nil => exact hpart
    | cons next rest =>
      simp only [List.map_cons, joinWith, List.length_append, List.length_cons] at ih ⊢
      omega

end Grove.Text
