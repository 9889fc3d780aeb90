import Grove.Yaml.Style

/-!
# Parts of a text

What is kept from neighbours is kept from them in every part of a text, and every text starts with a
word, or with spaces, that go no further.
-/
namespace Grove.Yaml

theorem hasKeyColon_append {cs ds : List CodePoint} (h : hasKeyColon (cs ++ ds) = false) :
    hasKeyColon ds = false := by
  induction cs with
  | nil => exact h
  | cons c cs ih =>
    rw [List.cons_append, hasKeyColon, Bool.or_eq_false_iff] at h
    exact ih h.2

theorem anyNeighbours_append {p : CodePoint → CodePoint → Bool} {cs ds : List CodePoint}
    (h : anyNeighbours p (cs ++ ds) = false) : anyNeighbours p ds = false := by
  induction cs with
  | nil => exact h
  | cons c cs ih =>
    cases hcs : cs ++ ds with
    | nil => rw [(List.append_eq_nil_iff.mp hcs).2]; rfl
    | cons d more =>
      rw [List.cons_append, hcs, anyNeighbours, Bool.or_eq_false_iff, ← hcs] at h
      exact ih h.2

theorem anyNeighbours_pair {p : CodePoint → CodePoint → Bool}
    {cs ds : List CodePoint} {a b : CodePoint} (h : anyNeighbours p (cs ++ a :: b :: ds) = false) :
    p a b = false := by
  have htail := anyNeighbours_append h
  rw [anyNeighbours, Bool.or_eq_false_iff] at htail
  exact htail.1

theorem hasKeyColon_at {cs ds : List CodePoint} (h : hasKeyColon (cs ++ ↑ ':' :: ds) = false) :
    endsWord ds.head? = false := by
  have htail := hasKeyColon_append h
  rw [hasKeyColon, Bool.or_eq_false_iff] at htail
  simpa using htail.1

theorem exists_word (cs : List CodePoint) : ∃ w gap, cs = w ++ gap ∧ (∀ x ∈ w, x ≠ ' ') ∧
    (gap ≠ [] → gap.head? = some (CodePoint.scalar ' ')) := by
  induction cs with
  | nil => exact ⟨[], [], rfl, nofun, fun h => absurd rfl h⟩
  | cons c cs ih =>
    by_cases hc : c = ' '
    · exact ⟨[], c :: cs, rfl, nofun, fun _ => by rw [hc]; rfl⟩
    · obtain ⟨w, gap, rfl, hw, hgap⟩ := ih
      exact ⟨c :: w, gap, rfl, List.forall_mem_cons.mpr ⟨hc, hw⟩, hgap⟩

theorem exists_spaces (cs : List CodePoint) :
    ∃ n more, cs = List.replicate n (CodePoint.scalar ' ') ++ more ∧
    ∀ x, more.head? = some x → x ≠ ' ' := by
  induction cs with
  | nil => exact ⟨0, [], rfl, nofun⟩
  | cons c cs ih =>
    by_cases hc : c = ' '
    · obtain ⟨n, more, rfl, hmore⟩ := ih
      exact ⟨n + 1, more, by rw [hc]; rfl, hmore⟩
    · refine ⟨0, c :: cs, rfl, ?_⟩
      intro x hx
      cases hx
      exact hc

theorem exists_run (p : CodePoint → Bool) (cs : List CodePoint) :
    ∃ run more, cs = run ++ more ∧ (∀ x ∈ run, p x = true) ∧
    more.head?.any p = false := by
  induction cs with
  | nil => exact ⟨[], [], rfl, nofun, rfl⟩
  | cons c cs ih =>
    by_cases hc : p c = true
    · obtain ⟨run, more, rfl, hrun, hmore⟩ := ih
      exact ⟨c :: run, more, rfl, List.forall_mem_cons.mpr ⟨hc, hrun⟩, hmore⟩
    · exact ⟨[], c :: cs, rfl, nofun, by simpa using hc⟩

end Grove.Yaml
